import WeeEvents.Turso.Isolation
import WeeEvents.Turso.DatabaseNames
import WeeEvents.Turso.Calls

/-!
# Finding a named partition again

A provisioner creates the database of a named partition under one rule and
recognises it in a listing under another. The two agree for every non-empty name,
unless the sanitised prefix happens to be the database's name: then the listing
takes the database for the default one.
-/
namespace WeeEvents.Turso
open Foundation Sqlite

variable {I : Type} [DecidableEq I] {config : ProvisionerConfig} {name : String}

/-- A named partition's database is told from the default one, and once it is opened by a
process without caches, any process that starts later finds its target and its name. -/
structure Discoverable (i j : I) (config : ProvisionerConfig) (name : String) : Prop where
  managed : config.isManagedNamedDatabase (config.dbNameFor (.named name)) = true
  notDefault : config.dbNameFor (.named name) ≠ config.dbNameFor .default
  namesIt : ∀ (w w₁ : TursoWorld I) (target : DatabaseTarget) (platform : Platform),
    w.caches i = {} →
    Program.Runs (ServedTo i) w (config.ensureTargetForName (.named name)) (.ok target) w₁ →
    w₁.platform.Grows platform → ∀ names w₂,
      Program.Runs (ServedTo j) (.start platform) config.names (.ok names) w₂ → name ∈ names
  targetsIt : ∀ (w w₁ : TursoWorld I) (target : DatabaseTarget) (platform : Platform),
    w.caches i = {} →
    Program.Runs (ServedTo i) w (config.ensureTargetForName (.named name)) (.ok target) w₁ →
    w₁.platform.Grows platform → ∀ targets w₂,
      Program.Runs (ServedTo j) (.start platform) config.namedTargets (.ok targets) w₂ →
        ∃ stripped, (stripped, target) ∈ targets

/-- The sanitised prefix is its own abbreviation and hash, followed by the fragment and the
hash of the name. -/
def SpellsOut (pre name : String) : Prop :=
  sanitizeFragment pre 51 = namedDatabasePrefix pre ++ "-" ++ partitionSuffix name pre

instance decidableSpellsOut (pre name : String) : Decidable (SpellsOut pre name) :=
  inferInstanceAs (Decidable (_ = _))

/-- The recogniser accepts a name that was built for a partition exactly when it is not the
default database's. -/
theorem managed_iff (config : ProvisionerConfig) (nonempty : name ≠ "") :
    config.isManagedNamedDatabase (config.dbNameFor (.named name)) = true ↔
      config.dbNameFor (.named name) ≠ config.dbNameFor .default := by
  have stripped : (stripPrefix (config.dbNameFor (.named name)) config.namedDbPrefix).isSome =
      true := by
    rw [stripPrefix, if_pos (config.dbNameFor_named nonempty)]
    rfl
  unfold ProvisionerConfig.isManagedNamedDatabase
  rw [stripped, Bool.and_true, bne_iff_ne]

/-- The databases of the empty name and of the default partition are one. -/
theorem dbNameFor_empty (config : ProvisionerConfig) :
    config.dbNameFor (.named "") = config.dbNameFor .default := rfl

theorem dbNameFor_ne_default_iff (config : ProvisionerConfig) (name : String) :
    config.dbNameFor (.named name) ≠ config.dbNameFor .default ↔
      name ≠ "" ∧ ¬ SpellsOut config.pre name := by
  by_cases empty : name = ""
  · subst empty
    constructor
    · exact fun ne => absurd (dbNameFor_empty config) ne
    · exact fun both => absurd rfl both.1
  · have named : config.dbNameFor (.named name) =
        namedDatabasePrefix config.pre ++ "-" ++ partitionSuffix name config.pre :=
      sanitizeDatabaseName_eq empty config.pre
    have default : config.dbNameFor .default = sanitizeFragment config.pre 51 :=
      sanitizeDatabaseName_empty config.pre
    rw [named, default, SpellsOut]
    constructor
    · exact fun ne => ⟨empty, fun same => ne same.symm⟩
    · exact fun both same => both.2 same.symm

/-- Opening a partition in a process without caches leaves a database of its name that records
the partition. -/
theorem opened_recorded {i : I} {w w₁ : TursoWorld I} {target : DatabaseTarget}
    (fresh : w.caches i = {})
    (run : Program.Runs (ServedTo i) w (config.ensureTargetForName (.named name)) (.ok target) w₁) :
    ∃ db ∈ w₁.platform.databases, db.name = config.dbNameFor (.named name) ∧
      target = config.makeTarget db.hostname ∧ w₁.platform.recordedName target = some name := by
  have asked := runs_ensureTargetForName run
  generalize same : Except.toOption (.ok target) = found at asked
  cases asked with
  | cached hit =>
      rw [fresh] at hit
      cases hit
  | nothing _ => cases same
  | adopted grows member named recorded =>
      cases same
      exact ⟨_, member, named, rfl, recorded name rfl⟩

theorem discoverable_of_managed (i j : I)
    (managed : config.isManagedNamedDatabase (config.dbNameFor (.named name)) = true)
    (notDefault : config.dbNameFor (.named name) ≠ config.dbNameFor .default) :
    Discoverable i j config name where
  managed := managed
  notDefault := notDefault
  namesIt w w₁ target platform fresh run grows names w₂ listing := by
    obtain ⟨db, member, named, rfl, recorded⟩ := opened_recorded fresh run
    apply ((runs_names listing).listed rfl names rfl name).1.mpr
    refine ⟨db, grows.databases member, ?_, grows.keeps _ _ recorded⟩
    rw [named]
    exact managed
  targetsIt w w₁ target platform fresh run grows targets w₂ listing := by
    obtain ⟨db, member, named, rfl, _⟩ := opened_recorded fresh run
    obtain ⟨_, _, listed⟩ := runs_namedTargets listing
    apply listed targets rfl db (grows.databases member)
    rw [named]
    exact managed

/-- A named partition is found again, and apart from the default one, exactly when its name is
not empty and the prefix does not spell out its database's name. -/
theorem discoverable_iff (i j : I) (config : ProvisionerConfig) (name : String) :
    Discoverable i j config name ↔ name ≠ "" ∧ ¬ SpellsOut config.pre name := by
  constructor
  · intro discoverable
    exact (dbNameFor_ne_default_iff config name).mp discoverable.notDefault
  · intro condition
    have apart := (dbNameFor_ne_default_iff config name).mpr condition
    exact discoverable_of_managed i j ((managed_iff config condition.1).mpr apart) apart

/-- The database of the empty name is the default one. -/
theorem empty_name_not_discoverable : ¬ ∀ (config : ProvisionerConfig) (name : String),
    Discoverable () () config name := by
  intro discoverable
  exact (discoverable ⟨"default", "shop", "token"⟩ "").notDefault (dbNameFor_empty _)

/-- A prefix spells out a database's name only with 27 characters or more. -/
theorem SpellsOut.long {pre name : String} (spells : SpellsOut pre name) :
    27 ≤ (sanitizeFragment pre 51).toList.length := by
  obtain ⟨word, hash, split, isWord, _, _, hashLong⟩ := namedDatabasePrefix_split pre
  have wordLong : 0 < word.length := by
    obtain ⟨c, isFirst, _⟩ := isWord.first
    exact List.length_pos_of_mem (List.mem_of_head? isFirst)
  have suffixLong : 16 ≤ (partitionSuffix name pre).toList.length := by
    have long := (stableHashHex_word name).2
    unfold partitionSuffix
    dsimp only
    split
    · exact long.ge
    · rw [toList_dash_append, List.length_append, List.length_cons]
      omega
  rw [spells, toList_dash_append, List.length_append, List.length_cons, split, List.length_append,
    List.length_cons]
  omega

/-- Such prefixes exist. -/
example : SpellsOut "abcdefghijkl-00000000-orders-00125d9250be8b4c-%/*+#!-" "orders" := by
  decide +kernel

end WeeEvents.Turso
