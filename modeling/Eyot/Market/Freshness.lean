import Eyot.Library.Run
import Eyot.Market.Frames

/-! Whether the hash that an entity stores is the one of its capabilities and prompt. -/

namespace Eyot.Market

open Catalog

def Fresh (sha : Str → Str) (s : State) : Prop := (hashes sha).Fresh s.catalog s.entities.rows

variable {sha : Str → Str} {s s' : State}

theorem migrationHash_refresh (c : Catalog) (e : Entity) :
    ((hashes sha).refresh c e).migrationHash =
      some (c.computeEntityMigrationHash sha ((hashes sha).refresh c e)) :=
  Derived.stored_refresh (D := hashes sha) c e

/-- Entries made and attached to one entity do not matter to another. -/
theorem sameFor_attachAll {c c' : Catalog} {scope : Scope} {caps : List (CapDict × Id)}
    {entries : List Id} (h : upsertAll c scope caps = some (c', entries)) {e : Entity} {id : Id}
    (hne : e.id ≠ id) :
    SameFor c { c' with entityCapabilities := attachAll c'.entityCapabilities id entries } e :=
  (sameFor_upsertAll h e).trans (sameFor_entityCapabilities (refs_attachAll_of_ne hne entries))

def State.empty : State where
  catalog := ⟨.empty, .empty, .empty, [], [], [], []⟩
  entities := .empty
  namespaces := .empty
  organizations := .empty
  registry := []

def stockedDigests : List (Str × Str) :=
  [([], emptyDigest),
    ("[]:".toList ++ emptyDigest,
      "c87585870ff18e934635f736705329f2a804b3f452dc111fee4c0a72cca55a89".toList),
    ("[\x7b\"name\":\"alpha\",\"type\":\"skill\"\x7d]:".toList ++ emptyDigest,
      "b3a9e97f610c55482b012beecca19d0c6d7349493c9b25580ce737acc5903ccc".toList)]

end Eyot.Market
