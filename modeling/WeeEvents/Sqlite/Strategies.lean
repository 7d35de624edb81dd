import WeeEvents.Sqlite.Partition

/-!
# The shipped partition strategies

One database for everything, one per aggregate type, one per aggregate, a fixed
number of hashed buckets, and any partitioner the user supplies.
-/
namespace WeeEvents.Sqlite
open Foundation

/-- A partition with a stable backend-facing name and a typed key. -/
@[ext] structure NamedPartition (T : Type) where
  name : String
  key : T
  deriving DecidableEq

namespace NamedPartition

/-- By name, then by key: the derived order, for a key ordered by `rank`. -/
abbrev orderBy {T β : Type} [LinearOrder β] (rank : T → β) (injective : Function.Injective rank) :
    LinearOrder (NamedPartition T) :=
  LinearOrder.lift' (fun p => toLex (p.name, rank p.key)) fun p q same => by
    have pair := Prod.ext_iff.mp (toLex.injective same)
    exact NamedPartition.ext pair.1 (injective pair.2)

end NamedPartition

variable {D : Type}

/-! ### Global -/

abbrev GlobalPartition : Type := Unit

def globalStrategy : LocalPartitionStrategy GlobalPartition D where
  bootstrapPartitions := [()]
  partitionForAggregate _ := .ok ()
  readPlan _ := .scanAll
  readPlanByType _ type := .scanType type
  partitionName _ := .default
  partitionFromName name := .error (.configuration
    ("global strategy does not support named local partitions: " ++ name))
  localPartitionLayout := .singleDatabase

/-! ### By type -/

abbrev TypePartition : Type := NamedPartition AggregateType

instance : LinearOrder TypePartition :=
  NamedPartition.orderBy AggregateType.text fun _ _ => AggregateType.ext

def typePartition (type : AggregateType) : TypePartition := ⟨type.text, type⟩

/-- The only row of a query, `none` for no row. -/
def onlyRow {α : Type} (multiple : BackendError) : List α → Except BackendError (Option α)
  | [] => .ok none
  | [row] => .ok (some row)
  | _ => .error multiple

def typeStrategy : LocalPartitionStrategy TypePartition D where
  partitionForAggregate id := .ok (typePartition id.aggregateType)
  readPlan partition := .scanType partition.key
  readPlanByType partition type :=
    if partition.key = type then .scanType type else .skip
  partitionName partition := .named partition.name
  partitionFromName name := .ok (typePartition ⟨name⟩)
  partitionFromTargetName name target :=
    (catalogCall (.openEventStoreConnection target)).andThen fun conn =>
    (catalogCall (.selectDistinctTypes conn)).andThen fun rows =>
    .ret ((onlyRow (.configuration
      ("partition '" ++ name ++ "' contains multiple aggregate types")) rows).map
        (Option.map typePartition))
  localPartitionLayout := .namedDatabases

/-! ### By aggregate -/

abbrev AggregatePartition : Type := NamedPartition AggregateId

instance : LinearOrder AggregatePartition := NamedPartition.orderBy sortKey sortKey_injective

def aggregatePartition (id : AggregateId) : AggregatePartition := ⟨id.toText, id⟩

def aggregateIdErrorMessage : AggregateId.ParseError → String
  | .missingColon => "aggregate ID must contain a colon separating type and key"
  | .emptyType => "aggregate type (before colon) must not be empty"
  | .emptyKey => "aggregate key (after colon) must not be empty"

def aggregateStrategy : LocalPartitionStrategy AggregatePartition D where
  partitionForAggregate id := .ok (aggregatePartition id)
  readPlan partition := .direct partition.key
  readPlanByType partition type :=
    if partition.key.aggregateType = type then .direct partition.key else .skip
  partitionName partition := .named partition.name
  partitionFromName name :=
    match AggregateId.fromStr name with
    | .error e => .error (.configuration
        ("invalid aggregate partition name '" ++ name ++ "': " ++ aggregateIdErrorMessage e))
    | .ok id => .ok (aggregatePartition id)
  partitionFromTargetName name target :=
    (catalogCall (.openEventStoreConnection target)).andThen fun conn =>
    (catalogCall (.selectDistinctAggregates conn)).andThen fun rows =>
    .ret ((onlyRow (.configuration
      ("aggregate partition '" ++ name ++ "' contains multiple aggregates")) rows).map
        (Option.map aggregatePartition))
  localPartitionLayout := .namedDatabases

/-! ### Hashed -/

abbrev BucketPartition : Type := NamedPartition UInt32

instance : LinearOrder BucketPartition :=
  NamedPartition.orderBy UInt32.toNat fun _ _ => UInt32.toNat_inj.mp

/-- `u32::to_le_bytes` -/
def toLeBytes (n : UInt32) : List UInt8 :=
  [n.toUInt8, (n >>> 8).toUInt8, (n >>> 16).toUInt8, (n >>> 24).toUInt8]

/-- `u32::try_from(len).unwrap_or(u32::MAX)` -/
def saturateU32 (n : Nat) : UInt32 := UInt32.ofNat (min n (2 ^ 32 - 1))

/-- FNV-1a over the type's length (4 LE bytes), then the type bytes, then the key bytes. -/
def hashAggregateId (id : AggregateId) : UInt32 :=
  let aggType := id.aggregateType.text.toUTF8.toList
  let aggKey := id.aggregateKey.toUTF8.toList
  (toLeBytes (saturateU32 aggType.length) ++ aggType ++ aggKey).foldl
    (fun hash byte => (hash ^^^ byte.toUInt32) * 0x01000193) 0x811c9dc5

def bucketName (bucket : UInt32) : String := "bucket-" ++ toString bucket.toNat

def bucketPartition (bucket : UInt32) : BucketPartition := ⟨bucketName bucket, bucket⟩

/-- `str::strip_prefix` -/
def stripPrefix (s pre : String) : Option String :=
  if pre.toList <+: s.toList then some (String.ofList (s.toList.drop pre.length)) else none

inductive ParseIntError where
  | empty
  | invalidDigit
  | posOverflow
  deriving DecidableEq, Repr

def parseIntErrorMessage : ParseIntError → String
  | .empty => "cannot parse integer from empty string"
  | .invalidDigit => "invalid digit found in string"
  | .posOverflow => "number too large to fit in target type"

/-- The checked loop of `u32::from_str`. -/
def parseDigits : Nat → List Char → Except ParseIntError Nat
  | result, [] => .ok result
  | result, c :: rest =>
      if !c.isDigit then .error .invalidDigit
      else if 2 ^ 32 ≤ result * 10 then .error .posOverflow
      else
        let next := result * 10 + (c.toNat - '0'.toNat)
        if 2 ^ 32 ≤ next then .error .posOverflow else parseDigits next rest

/-- `str::parse::<u32>`: a leading plus sign is allowed before digits. -/
def parseU32 (s : String) : Except ParseIntError UInt32 :=
  match s.toList with
  | [] => .error .empty
  | ['+'] => .error .invalidDigit
  | '+' :: digits => (parseDigits 0 digits).map UInt32.ofNat
  | digits => (parseDigits 0 digits).map UInt32.ofNat

/-- `buckets` is non-zero. -/
def hashedStrategy (buckets : { n : UInt32 // n ≠ 0 }) : LocalPartitionStrategy BucketPartition D where
  partitionForAggregate id := .ok (bucketPartition (hashAggregateId id % buckets.val))
  readPlan _ := .scanAll
  readPlanByType _ type := .scanType type
  partitionName partition := .named partition.name
  partitionFromName name :=
    match stripPrefix name "bucket-" with
    | none => .error (.configuration ("invalid hashed partition name '" ++ name ++ "'"))
    | some digits =>
        match parseU32 digits with
        | .error e => .error (.configuration
            ("invalid hashed partition name '" ++ name ++ "': " ++ parseIntErrorMessage e))
        | .ok bucket => .ok (bucketPartition bucket)
  localPartitionLayout := .namedDatabases

/-! ### By a partitioner -/

abbrev TextPartition : Type := NamedPartition String

instance : LinearOrder TextPartition := NamedPartition.orderBy id Function.injective_id

def textPartition (name : String) : TextPartition := ⟨name, name⟩

def partitionByStrategy (partitioner : AggregateId → String) :
    LocalPartitionStrategy TextPartition D where
  partitionForAggregate id := .ok (textPartition (partitioner id))
  readPlan _ := .scanAll
  readPlanByType _ type := .scanType type
  partitionName partition := .named partition.name
  partitionFromName name := .ok (textPartition name)
  localPartitionLayout := .namedDatabases

end WeeEvents.Sqlite
