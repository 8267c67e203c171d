import WireCodec.Command.Request
import WireCodec.Digest
import WireCodec.Path
/-! # Placement

Each schema of a run gets a directory named for its namespace.  Schemas of one namespace are told
apart by the digests of their code: the same code is written once, and different code either gets a
directory with its digest in the name or is passed over.  `Accounts` says what became of every
schema. -/

namespace WireCodec

/-! ### Telling code apart -/

namespace SourceUnit

/-- What a unit says: the name of its module and its source, each closed by a zero. -/
def content (u : SourceUnit) : List UInt8 :=
  u.module.toUTF8.data.toList ++ 0 :: (u.source.toUTF8.data.toList ++ [0])

/-- The digest of what some units say. -/
def digest (units : List SourceUnit) : String := Digest.short (units.flatMap content)

end SourceUnit

/-! ### Places -/

namespace Command

/-- What became of the schemas of a run. -/
structure Accounts where
  schemas : Nat := 0
  duplicates : Nat := 0
  renamed : Nat := 0
  written : Nat := 0
  deriving DecidableEq, Repr

/-- A schema that has a directory. -/
structure Tenant where
  namespaceName : String
  digest : String
  directory : String
  deriving DecidableEq, Repr

/-- Where a schema goes. -/
inductive Placement
  | skipped
  | placed (directory : String)
  /-- Under a name with the digest, since the namespace is taken. -/
  | renamed (name directory : String)
  deriving DecidableEq, Repr

def Placement.directory? : Placement → Option String
  | skipped => none
  | placed directory => some directory
  | renamed _ directory => some directory

/-- The schemas placed so far. -/
structure Tenancy where
  tenants : List Tenant := []
  accounts : Accounts := {}
  deriving DecidableEq, Repr

namespace Tenancy

/-- Where a schema goes, from the schemas that have its namespace already. -/
def decide (others : List Tenant) (strategy : Strategy) (output name digest : String) : Placement :=
  if others.any (·.digest == digest) then .skipped
  else if others.isEmpty then .placed (Path.join output name)
  else match strategy with
    | .skipConflicts => .skipped
    | .hashSuffix =>
      let renamed := name ++ "_" ++ digest
      .renamed renamed (Path.join output renamed)

/-- Counts a schema that goes somewhere. -/
def settle (a : Accounts) : Placement → Accounts
  | .skipped => { a with schemas := a.schemas + 1, duplicates := a.duplicates + 1 }
  | .placed _ => { a with schemas := a.schemas + 1 }
  | .renamed .. => { a with schemas := a.schemas + 1, renamed := a.renamed + 1 }

/-- Finds a place for a schema. -/
def register (t : Tenancy) (strategy : Strategy) (output name digest : String) :
    Tenancy × Placement :=
  let others := t.tenants.filter (·.namespaceName == name)
  let placement := decide others strategy output name digest
  let tenants := match placement.directory? with
    | some directory => t.tenants ++ [⟨name, digest, directory⟩]
    | none => t.tenants
  (⟨tenants, settle t.accounts placement⟩, placement)

end Tenancy
end Command
end WireCodec
