/-
# The canonical type registry

The engine-owned registry of `src/canon/registry.rs`: it hash-conses whole recursion
groups to canonical type ids, counts references per group, and reclaims a group whose
count reaches zero together with everything only it kept alive.

The arenas are lists of optional slots and the two free lists are stacks with their
top at the head.  A function that can panic in the source (an `expect`, an index out
of range) returns an `Option` and is `none` there; the reclamation worklist is also
`none` when it runs out of the fuel it is given, which is one more than the sum of all
reference counts.
-/
import SubmilliWasm.Lib.Slots
import SubmilliWasm.Canon.Keys

namespace SubmilliWasm

open Slots

/-- A registered canonical type: body and supertype hold absolute ids. -/
structure CanonType where
  kind : AggKind
  finality : Finality
  supertype : Option CanonicalTypeId
  body : CBody CanonRef
  deriving DecidableEq, Repr

/-- The ids a registered type mentions, in its supertype and in its body. -/
def CanonType.mentions (t : CanonType) : List CanonRef :=
  (t.supertype.map CanonRef.canon).toList ++ t.body.refs

/-- A live group: its key, the ids of its members and its reference count. -/
structure GroupRecord where
  key : CGroup
  members : List CanonicalTypeId
  refcount : ℕ
  deriving DecidableEq, Repr

/-- The registry: slots for types and groups, and the map that conses them. -/
structure TypeRegistry where
  types : List (Option CanonType)
  typeToGroup : List (Option GroupId)
  freeTypes : List CanonicalTypeId
  groups : List (Option GroupRecord)
  freeGroups : List GroupId
  interned : List (CGroup × GroupId)
  deriving DecidableEq, Repr

namespace TypeRegistry

/-- Nothing registered. -/
def empty : TypeRegistry := ⟨[], [], [], [], [], []⟩

/-! ## Lookups -/

/-- The live record of group `g`. -/
def group? (r : TypeRegistry) (g : GroupId) : Option GroupRecord := entry r.groups g

/-- The live registration of type `id`. -/
def type? (r : TypeRegistry) (id : CanonicalTypeId) : Option CanonType := entry r.types id

/-- The group owning `id`, or `none` if `id` is not a live type. -/
def groupOf (r : TypeRegistry) (id : CanonicalTypeId) : Option GroupId := entry r.typeToGroup id

/-- Declared subtyping: walks the supertype chain of `sub`, for a number of turns.  The loop of the
source has no bound.  A chain without a cycle visits each type slot at most once, so that
`types.length + 1` turns give the loop's answer (`subtypeAnswers_isSubtype`); on a chain that runs
into a cycle, which a group built by an embedder can declare, the loop does not come back, and the
answer here is `false`. -/
def isSubtypeFrom (r : TypeRegistry) (sup : CanonicalTypeId) :
    ℕ → Option CanonicalTypeId → Bool
  | _, none => false
  | 0, some _ => false
  | fuel + 1, some id =>
    if id = sup then true else r.isSubtypeFrom sup fuel ((r.type? id).bind (·.supertype))

/-- Declared subtyping, over as many links as there are slots. -/
def isSubtype (r : TypeRegistry) (sub sup : CanonicalTypeId) : Bool :=
  r.isSubtypeFrom sup (r.types.length + 1) (some sub)

/-- The kind of a live type. -/
def kind (r : TypeRegistry) (id : CanonicalTypeId) : Option AggKind := (r.type? id).map (·.kind)

/-- Whether a live type is final. -/
def finality (r : TypeRegistry) (id : CanonicalTypeId) : Option Finality :=
  (r.type? id).map (·.finality)

/-! ## Reference counts -/

/-- The width of a group's reference count. -/
def refcountBound : ℕ := 2 ^ 32

/-- Counts one more reference to a live group. -/
def increfGroup (r : TypeRegistry) (g : GroupId) : Option TypeRegistry :=
  match r.group? g with
  | none => none                                  -- expect: a live group
  | some rec =>
    if rec.refcount + 1 < refcountBound then      -- checked_add
      some { r with groups := r.groups.set g (some { rec with refcount := rec.refcount + 1 }) }
    else none

/-- Empties the slots of a reclaimed group's members. -/
def vacateTypes (r : TypeRegistry) : List CanonicalTypeId → TypeRegistry
  | [] => r
  | m :: ms =>
    vacateTypes { r with
      types := r.types.set m none
      typeToGroup := r.typeToGroup.set m none
      freeTypes := m :: r.freeTypes } ms

/-- Takes a group whose count reached zero out of the registry. -/
def removeGroup (r : TypeRegistry) (g : GroupId) (rec : GroupRecord) : TypeRegistry :=
  let r := { r with
    groups := r.groups.set g none
    interned := r.interned.filter fun p => p.1 ≠ rec.key }
  let r := r.vacateTypes rec.members
  { r with freeGroups := g :: r.freeGroups }

/-- The groups a reclaimed group referenced, in the order they are pushed: the last one pushed
is the next one popped. -/
def edgeGroups (r : TypeRegistry) (key : CGroup) : List GroupId :=
  (edgeCanonIds key).filterMap r.groupOf

/-- The reclamation worklist of `decref_group`. -/
def decrefLoop : ℕ → TypeRegistry → List GroupId → Option TypeRegistry
  | _, r, [] => some r
  | 0, _, _ :: _ => none
  | fuel + 1, r, g :: stack =>
    match r.group? g with
    | none => none                                -- expect: a live group
    | some rec =>
      if rec.refcount = 0 then none               -- checked_sub
      else if rec.refcount - 1 > 0 then
        decrefLoop fuel { r with
          groups := r.groups.set g (some { rec with refcount := rec.refcount - 1 }) } stack
      else
        -- The edges are read before the members' slots are emptied, so a group never finds
        -- itself among its own edges.
        decrefLoop fuel (r.removeGroup g rec) ((r.edgeGroups rec.key).reverse ++ stack)

/-- Drops one reference, and all that only the group kept alive. -/
def decrefGroup (r : TypeRegistry) (g : GroupId) : Option TypeRegistry :=
  decrefLoop (total GroupRecord.refcount r.groups + 1) r [g]

/-- Counts one more reference to the group of a type. -/
def increfType (r : TypeRegistry) (id : CanonicalTypeId) : Option TypeRegistry :=
  match r.groupOf id with
  | none => none
  | some g => r.increfGroup g

/-- Drops one reference to the group of a type. -/
def decrefType (r : TypeRegistry) (id : CanonicalTypeId) : Option TypeRegistry :=
  match r.groupOf id with
  | none => none
  | some g => r.decrefGroup g

/-- One decrement for each id of the list, which lists a group once per registration. -/
def release (r : TypeRegistry) : List GroupId → Option TypeRegistry
  | [] => some r
  | g :: gs => do
    let r ← r.decrefGroup g
    r.release gs

/-! ## Interning a group -/

/-- A free slot for a group, or a new one. -/
def takeGroupSlot (r : TypeRegistry) : GroupId × TypeRegistry :=
  match r.freeGroups with
  | g :: rest => (g, { r with freeGroups := rest })
  | [] => (r.groups.length, { r with groups := r.groups ++ [none] })

/-- A free slot for a type, or a new one. -/
def takeTypeSlot (r : TypeRegistry) : CanonicalTypeId × TypeRegistry :=
  match r.freeTypes with
  | id :: rest => (id, { r with freeTypes := rest })
  | [] =>
    (r.types.length, { r with
      types := r.types ++ [none]
      typeToGroup := r.typeToGroup ++ [none] })

/-- Slots for the members of a group. -/
def takeTypeSlots (r : TypeRegistry) : ℕ → List CanonicalTypeId × TypeRegistry
  | 0 => ([], r)
  | n + 1 =>
    let (id, r) := r.takeTypeSlot
    let (ids, r) := r.takeTypeSlots n
    (id :: ids, r)

/-- The registration of one member: its key with the references made absolute. -/
def canonType (members : List CanonicalTypeId) (ct : CType CanonRef) : CanonType where
  kind := bodyKind ct.body
  finality := ct.finality
  supertype := ct.supertype.map (resolve members)
  body := resolveBody members ct.body

/-- Fills the slots of the new members, walking the key and the ids side by side. -/
def writeTypes (r : TypeRegistry) (g : GroupId) (members : List CanonicalTypeId) :
    List CanonicalTypeId → CGroup → Option TypeRegistry
  | _, [] => some r
  | [], _ :: _ => none                            -- more bodies than ids: index panic
  | id :: ids, ct :: cts =>
    writeTypes { r with
      types := r.types.set id (some (canonType members ct))
      typeToGroup := r.typeToGroup.set id (some g) } g members ids cts

/-- Pins the groups the new group references, once per occurrence. -/
def pinEdges (r : TypeRegistry) : List CanonicalTypeId → Option TypeRegistry
  | [] => some r
  | id :: ids =>
    if id < r.typeToGroup.length then
      match r.groupOf id with
      | none => r.pinEdges ids
      | some og => do
        let r ← r.increfGroup og
        r.pinEdges ids
    else none                                     -- index panic

/-- Interns a group: the one registered under its key, or a new one. -/
def internGroup (r : TypeRegistry) (key : CGroup) (len : ℕ) :
    Option (GroupId × TypeRegistry) :=
  match r.interned.lookup key with
  | some g => do
    let r ← r.increfGroup g
    return (g, r)
  | none =>
    if WellScoped key len then do
      let (g, r) := r.takeGroupSlot
      let (members, r) := r.takeTypeSlots len
      let r ← r.writeTypes g members members key
      let r ← r.pinEdges (edgeCanonIds key)
      let r := { r with
        groups := r.groups.set g (some ⟨key, members, 1⟩)
        interned := (key, g) :: r.interned }
      return (g, r)
    else none

/-- The ids of a group just interned. -/
def membersOf (r : TypeRegistry) (g : GroupId) : Option (List CanonicalTypeId) :=
  (r.group? g).map (·.members)

/-! ## The three front ends -/

/-- How a module-relative index resolves while the group `[base, stop)` is keyed. -/
def moduleRef (base stop : ℕ) (moduleToCanon : List CanonicalTypeId) (m : ℕ) : CanonRef :=
  if base ≤ m ∧ m < stop then .rel (m - base) else .canon (moduleToCanon.getD m 0)

/-- The key of the group `[base, stop)` of a module. -/
def buildKey (types : List ModuleType) (base stop : ℕ) (moduleToCanon : List CanonicalTypeId) :
    CGroup :=
  ((types.take stop).drop base).map (typeKey (moduleRef base stop moduleToCanon))

/-- The end of the recursion group that starts at `base`: the run of types sharing its group. -/
def groupEnd (types : List ModuleType) (base : ℕ) : ℕ :=
  base + ((types.drop base).takeWhile fun t =>
    decide (some t.group = (types[base]?).map (·.group))).length

/-- Interns the remaining groups of a module.  `moduleToCanon` holds the ids of the types
before `base`; the source pre-fills the rest of that vector with a placeholder that a validated
module never reads. -/
def internModuleFrom (types : List ModuleType) :
    ℕ → TypeRegistry → ℕ → List CanonicalTypeId → List GroupId →
      Option ((List CanonicalTypeId × List GroupId) × TypeRegistry)
  | 0, r, _, moduleToCanon, registered => some ((moduleToCanon, registered), r)
  | fuel + 1, r, base, moduleToCanon, registered =>
    if base < types.length then do
      let stop := groupEnd types base
      let key := buildKey types base stop moduleToCanon
      let (g, r) ← r.internGroup key (stop - base)
      let canon ← r.membersOf g
      internModuleFrom types fuel r stop (moduleToCanon ++ canon) (registered ++ [g])
    else some ((moduleToCanon, registered), r)

/-- Interns every group of a module. -/
def internModule (r : TypeRegistry) (types : List ModuleType) :
    Option ((List CanonicalTypeId × List GroupId) × TypeRegistry) :=
  internModuleFrom types types.length r 0 [] []

/-- Interns a single host-built composite type as a singleton group. -/
def internOne (r : TypeRegistry) (finality : Finality) (supertype : Option CanonicalTypeId)
    (body : CBody CanonRef) : Option ((CanonicalTypeId × GroupId) × TypeRegistry) := do
  let (g, r) ← r.internGroup [⟨finality, supertype.map .canon, body⟩] 1
  let members ← r.membersOf g
  let id ← members[0]?
  return ((id, g), r)

/-- Interns a function type of the host. -/
def internFunc (r : TypeRegistry) (params results : List ValType) :=
  r.internOne .final none (funcBody params results)

/-- Interns a struct type of the host. -/
def internStruct (r : TypeRegistry) (finality : Finality) (supertype : Option CanonicalTypeId)
    (fields : List FieldType) :=
  r.internOne finality supertype (structBody fields)

/-- Interns an array type of the host. -/
def internArray (r : TypeRegistry) (finality : Finality) (supertype : Option CanonicalTypeId)
    (field : FieldType) :=
  r.internOne finality supertype (arrayBody field)

/-- How an index of a host-built group resolves: a sibling, or an already registered type. -/
def hostRef (n : ℕ) (externals : List CanonicalTypeId) (mi : ℕ) : CanonRef :=
  if mi < n then .rel mi else .canon (externals.getD (mi - n) 0)

/-- Interns a group the host built. -/
def internHostGroup (r : TypeRegistry) (members : List ModuleType)
    (externals : List CanonicalTypeId) :
    Option ((List CanonicalTypeId × GroupId) × TypeRegistry) := do
  let n := members.length
  let key := members.map (typeKey (hostRef n externals))
  let (g, r) ← r.internGroup key n
  let ids ← r.membersOf g
  return ((ids, g), r)

end TypeRegistry

end SubmilliWasm
