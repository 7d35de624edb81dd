import WeeEvents.Sqlite.Strategies
import WeeEvents.Sqlite.Store

/-!
# The shipped partition catalogs

Local files under one root, a single target for every partition, and named
targets behind a provisioner. The base-32 coder of the local file names is a
third-party crate: it is a parameter that decodes what it encodes.
-/
namespace WeeEvents.Sqlite
open Foundation

/-- `BASE32_NOPAD`: RFC 4648 upper-case base 32 without padding. -/
class Base32Nopad where
  encode : List UInt8 → String
  decode : List UInt8 → Except String (List UInt8)
  decode_encode : ∀ bytes, decode (encode bytes).toUTF8.toList = .ok bytes
  alphabet : ∀ bytes, ∀ c ∈ (encode bytes).toList, c.isUpper ∨ c ∈ "234567".toList

/-! ### File names -/

def encodedPathPrefix : String := "b32-"

section Path

variable [Base32Nopad]

def encodePathComponent (value : String) : String :=
  encodedPathPrefix ++ Base32Nopad.encode value.toUTF8.toList

/-- `String::from_utf8` -/
def fromUtf8 (bytes : List UInt8) : Option String := String.fromUTF8? ⟨bytes.toArray⟩

def decodePathComponent (value : String) : Except BackendError String :=
  match stripPrefix value encodedPathPrefix with
  | none => .error (.configuration ("invalid encoded partition path component: " ++ value))
  | some encoded =>
      match Base32Nopad.decode encoded.toUTF8.toList with
      | .error e => .error (.configuration
          ("invalid encoded partition path component '" ++ value ++ "': " ++ e))
      | .ok bytes =>
          match fromUtf8 bytes with
          | none => .error (.configuration
              ("invalid utf-8 in encoded partition path component '" ++ value ++ "'"))
          | some name => .ok name

/-- `Path::file_stem` and `Path::extension`: what stands before and after the
last dot of a file name, unless that dot is its first character. -/
def splitExtension (fileName : String) : String × Option String :=
  match fileName.toList.reverse.dropWhile (· ≠ '.') with
  | [] => (fileName, none)
  | [_] => (fileName, none)
  | _ :: stem => (String.ofList stem.reverse,
      some (String.ofList (fileName.toList.reverse.takeWhile (· ≠ '.')).reverse))

/-! ### The local catalog -/

section Local

variable {P D : Type} (strategy : LocalPartitionStrategy P D)

def pathForPartition (partition : P) : Except BackendError LocalPath :=
  match strategy.localPartitionLayout with
  | .singleDatabase => .ok .root
  | .namedDatabases =>
      match strategy.partitionName partition with
      | .named name => .ok (.inRoot (encodePathComponent name ++ ".db"))
      | .default => .error (.configuration
          "named local partition strategy returned the default partition")

/-- The directory loop of `discover_partitions`. -/
def discoverNamed : List String → Except BackendError (List P)
  | [] => .ok []
  | fileName :: rest =>
      match splitExtension fileName with
      | (stem, some "db") =>
          match decodePathComponent stem with
          | .error e => .error e
          | .ok partitionName =>
              match strategy.partitionFromName partitionName with
              | .error e => .error e
              | .ok partition =>
                  match discoverNamed rest with
                  | .error e => .error e
                  | .ok partitions => .ok (partition :: partitions)
      | _ => discoverNamed rest

def discoverPartitions : CatalogProgram D (List P) :=
  match strategy.localPartitionLayout with
  | .singleDatabase => .ret (.ok strategy.bootstrapPartitions)
  | .namedDatabases =>
      (catalogCall .readDir).andThen fun fileNames => .ret (discoverNamed strategy fileNames)

def localPartitionCatalog : PartitionCatalog P D where
  ensureTargetForPartition partition :=
    match pathForPartition strategy partition with
    | .error e => .ret (.error e)
    | .ok path =>
        (catalogCall (.createParentDir path)).andThen fun _ => .ret (.ok (.ofPath path))
  targetForExistingPartition partition :=
    match pathForPartition strategy partition with
    | .error e => .ret (.error e)
    | .ok path => (catalogCall (.pathExists path)).bind fun pathExists =>
        .ret (.ok (if pathExists then some (.ofPath path) else none))
  partitions := discoverPartitions strategy
  prepareConnectionForPartition := prepareNamedConnection strategy.toPartitionNamingStrategy

end Local
end Path

/-! ### The remote catalogs -/

section Remote

variable {P D : Type}

def singleTargetCatalog : PartitionCatalog P D where
  ensureTargetForPartition _ := catalogCall .ensureTarget
  targetForExistingPartition _ := catalogCall .existingTarget
  partitions := .ret (.ok [])

variable (strategy : PartitionNamingStrategy P D)

/-- The partition of one target: by its recorded name, or as the strategy finds it. -/
def namedTargetPartition (name : String) (target : DatabaseTarget) : CatalogProgram D (Option P) :=
  (catalogCall (.openEventStoreConnection target)).andThen fun conn =>
  (catalogCall (.selectLogicalName conn)).andThen fun
    | some recorded => .ret ((strategy.partitionFromName recorded).map some)
    | none => strategy.partitionFromTargetName name target

/-- `try_join_all` over the named targets, one after the other. -/
def namedTargetPartitions : List (String × DatabaseTarget) → CatalogProgram D (List P)
  | [] => .ret (.ok [])
  | (name, target) :: rest =>
      (namedTargetPartition strategy name target).andThen fun partition =>
      (namedTargetPartitions rest).andThen fun partitions =>
      .ret (.ok (partition.toList ++ partitions))

def namedTargetCatalog [LinearOrder P] : PartitionCatalog P D where
  ensureTargetForPartition partition :=
    catalogCall (.ensureTargetForName (strategy.partitionName partition))
  targetForExistingPartition partition :=
    catalogCall (.targetForExistingName (strategy.partitionName partition))
  partitions :=
    (catalogCall .namedTargets).andThen fun namedTargets =>
    (namedTargetPartitions strategy namedTargets).andThen fun partitions =>
    .ret (.ok (sortedSet (partitions ++ strategy.bootstrapPartitions.filter
      fun partition => strategy.partitionName partition = .default)))
  prepareConnectionForPartition := prepareNamedConnection strategy

end Remote
end WeeEvents.Sqlite
